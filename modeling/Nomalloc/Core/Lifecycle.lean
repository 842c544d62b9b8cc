import Nomalloc.Core.Allocator
import Nomalloc.Lib.Runs
import Nomalloc.Memory.ArenaManager

/-!
# `allocator_init` and `allocator_shutdown`

`allocator_init` sets `initialized` before the steps that can fail, and every failure takes down by
hand what is up by then.  Here the arena manager (`ArenaManager`) and the thread key are part of the
state:

* `Lifecycle.init`, `Lifecycle.shutdown`, with the pthread keys that exist.

`lifecycle_clean`: after any sequence of the two, whatever failed on the way, the allocator is up
with one arena and its key, or down with nothing left behind.  The chunks of an arena, the thread
caches and the locks are left out.
-/

namespace Nomalloc

/-- The part of `g_allocator` that decides whether it is up, the arena manager, and the pthread
keys that exist. -/
structure Lifecycle where
  initialized : Bool
  initializing : Bool
  tcacheKey : ℕ
  keys : List ℕ
  manager : ArenaManager

/-- What the environment answers during `allocator_init`: libc's address for the arena, and the
new pthread key. -/
structure InitEnv where
  arena : ℕ
  key : Option ℕ

namespace Lifecycle

/-- `allocator_init` -/
def init (g : Lifecycle) (env : InitEnv) : ℤ × Lifecycle :=
  if g.initialized then (0, g)
  else if g.initializing then (-1, g)
  else
    let g := { g with initializing := true, initialized := false, tcacheKey := 0 }
    let g := { g with initialized := true }
    let (rc, m) := g.manager.arenaManagerInit
    if rc ≠ 0 then (-1, { g with manager := m, initializing := false, initialized := false })
    else
      let (arena, m) := m.arenaCreate env.arena
      if arena = 0 then
        (-1, { g with
          manager := m.arenaManagerShutdown, initializing := false, initialized := false })
      else match env.key with
        | none => (-1, { g with
            manager := m.arenaManagerShutdown, initializing := false, initialized := false })
        | some key => (0, { g with
            manager := m, tcacheKey := key, keys := key :: g.keys, initializing := false })

/-- `allocator_shutdown` -/
def shutdown (g : Lifecycle) : Lifecycle :=
  let g := { g with initializing := true }
  if !g.initialized then { g with initializing := false }
  else
    let g := { g with
      manager := g.manager.arenaManagerShutdown, keys := g.keys.erase g.tcacheKey }
    { g with initialized := false, tcacheKey := 0, initializing := false }

/-- Up with one arena and one key, or down with none. -/
structure Settled (g : Lifecycle) : Prop where
  quiet : g.initializing = false
  up : g.initialized = true → g.manager.HoldsOne ∧ g.keys = [g.tcacheKey]
  down : g.initialized = false → g.manager.Empty ∧ g.keys = []

variable {g : Lifecycle}

theorem init_down (h : g.Settled) (hdown : g.initialized = false) (env : InitEnv) :
    (∃ key, env.arena ≠ 0 ∧ env.key = some key ∧ (g.init env).1 = 0 ∧
      (g.init env).2.initialized = true ∧ (g.init env).2.Settled) ∨
    ((env.arena = 0 ∨ env.key = none) ∧ (g.init env).1 = -1 ∧
      (g.init env).2.initialized = false ∧ (g.init env).2.Settled) := by
  obtain ⟨hmanager, hkeys⟩ := h.down hdown
  have hclear : g.manager.clear.Empty := .clear hmanager.made
  unfold init ArenaManager.arenaManagerInit
  rw [hdown, h.quiet]
  dsimp only
  rw [if_neg (by decide), if_neg (by decide), if_neg (by decide)]
  rcases hclear.arenaCreate env.arena with ⟨hraw, he⟩ | ⟨hraw, hfst, hone⟩
  · -- no arena: an empty manager is shut down
    rw [he]
    dsimp only
    rw [if_pos rfl]
    have hempty : g.manager.clear.arenaManagerShutdown.Empty := .clear hmanager.made
    exact .inr ⟨.inl hraw, rfl, rfl, rfl, (fun hc => nomatch hc), fun _ => ⟨hempty, hkeys⟩⟩
  · rw [if_neg (by rw [hfst]; exact hraw)]
    cases hkey : env.key with
    | none =>
      refine .inr ⟨.inr rfl, rfl, rfl, rfl, (fun hc => nomatch hc), fun _ => ⟨?_, hkeys⟩⟩
      exact hone.arenaManagerShutdown
    | some key =>
      exact .inl ⟨key, hraw, rfl, rfl, rfl, rfl, fun _ => ⟨hone, by rw [hkeys]⟩,
        fun hc => nomatch hc⟩

theorem init_up (hup : g.initialized = true) (env : InitEnv) : g.init env = (0, g) := if_pos hup

theorem settled_shutdown (h : g.Settled) : g.shutdown.Settled := by
  cases hi : g.initialized with
  | false =>
    have he : g.shutdown = { g with initializing := false } := by
      unfold shutdown
      dsimp only
      rw [hi]
      rfl
    rw [he]
    exact ⟨rfl, h.up, h.down⟩
  | true =>
    obtain ⟨hone, hkeys⟩ := h.up hi
    have he : g.shutdown = ⟨false, false, 0, g.keys.erase g.tcacheKey,
        g.manager.arenaManagerShutdown⟩ := by
      unfold shutdown
      dsimp only
      rw [hi]
      rfl
    rw [he]
    refine ⟨rfl, (fun hc => nomatch hc), fun _ => ⟨hone.arenaManagerShutdown, ?_⟩⟩
    dsimp only
    rw [hkeys]
    exact List.erase_cons_head ..

end Lifecycle

/-! ## sequences of calls -/

/-- A call. -/
inductive LifeOp where
  | init (env : InitEnv)
  | shutdown

/-- The allocator, and what the last `allocator_init` returned if it was the last call. -/
structure LifeSys where
  g : Lifecycle
  ret : Option ℤ

namespace LifeSys

def step (s : LifeSys) : LifeOp → LifeSys
  | .init env => ⟨(s.g.init env).2, some (s.g.init env).1⟩
  | .shutdown => ⟨s.g.shutdown, none⟩

/-- The program starts with everything zero. -/
def start : LifeSys := ⟨⟨false, false, 0, [], ⟨fun _ => 0, 0, fun _ => 0, []⟩⟩, none⟩

/-- What holds on return from every call. -/
structure Clean (s : LifeSys) : Prop where
  quiet : s.g.initializing = false
  ret : ∀ rc ∈ s.ret, rc = 0 ↔ s.g.initialized = true
  up : s.g.initialized = true → s.g.manager.HoldsOne ∧ s.g.keys = [s.g.tcacheKey]
  down : s.g.initialized = false → s.g.manager.Empty ∧ s.g.keys = []
  /-- a later call can succeed -/
  again : s.g.initialized = false → ∀ env : InitEnv, env.arena ≠ 0 → env.key ≠ none →
    (s.g.init env).1 = 0 ∧ (s.g.init env).2.initialized = true

theorem clean_of_settled {s : LifeSys} (h : s.g.Settled)
    (hret : ∀ rc ∈ s.ret, rc = 0 ↔ s.g.initialized = true) : s.Clean := by
  refine ⟨h.quiet, hret, h.up, h.down, fun hdown env harena hkey => ?_⟩
  rcases Lifecycle.init_down h hdown env with ⟨_, _, _, hrc, hin, _⟩ | ⟨hfail, _⟩
  · exact ⟨hrc, hin⟩
  · exact absurd hfail (not_or.2 ⟨harena, hkey⟩)

/-- A call leaves the allocator settled, and returns what it did. -/
theorem clean_step {s : LifeSys} (h : s.g.Settled) (op : LifeOp) :
    (s.step op).g.Settled ∧ (s.step op).Clean := by
  cases op with
  | shutdown =>
    have hs : s.g.shutdown.Settled := Lifecycle.settled_shutdown h
    exact ⟨hs, clean_of_settled hs fun rc hrc => nomatch hrc⟩
  | init env =>
    have hs : (s.g.init env).2.Settled ∧
        ((s.g.init env).1 = 0 ↔ (s.g.init env).2.initialized = true) := by
      cases hi : s.g.initialized with
      | true =>
        rw [Lifecycle.init_up hi]
        exact ⟨h, iff_of_true rfl hi⟩
      | false =>
        rcases Lifecycle.init_down h hi env with ⟨_, _, _, hrc, hin, hs⟩ | ⟨_, hrc, hin, hs⟩
        · exact ⟨hs, iff_of_true hrc hin⟩
        · rw [hrc, hin]
          exact ⟨hs, by decide⟩
    refine ⟨hs.1, clean_of_settled hs.1 fun rc hrc => ?_⟩
    cases hrc
    exact hs.2

theorem settled_start : start.g.Settled :=
  ⟨rfl, fun hc => (nomatch hc), fun _ => ⟨⟨rfl, fun _ => rfl, rfl⟩, rfl⟩⟩

end LifeSys

/-- **Nothing is left behind.**  After every call of every sequence of `allocator_init` and
`allocator_shutdown`, whatever fails on the way. -/
theorem lifecycle_clean (ops : List LifeOp) :
    Runs.Always LifeSys.step LifeSys.Clean LifeSys.start ops := by
  have hrun : Runs.Always LifeSys.step (fun s => s.g.Settled ∧ s.Clean) LifeSys.start ops := by
    refine Runs.inv_always (fun s op h _ => LifeSys.clean_step h.1 op)
      ⟨LifeSys.settled_start, LifeSys.clean_of_settled LifeSys.settled_start fun _ h => nomatch h⟩
      (Runs.each_of_forall (fun _ _ => trivial) _ _)
  exact hrun.mono fun s h => h.2

end Nomalloc
