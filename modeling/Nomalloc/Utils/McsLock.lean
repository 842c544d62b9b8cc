import Nomalloc.Lib.Runs
import Mathlib.Logic.Function.Basic
import Mathlib.Tactic

/-!
# `utils/spinlock.h`: the MCS lock

A run is a list of threads: each entry lets that thread do its next atomic operation.  Every thread
has one node, and is named by it.

A thread that finds a predecessor stores 0 into the counter of the predecessor's node and waits
until its own counter is no longer 1.  So it is the arrival of the next thread that ends the wait,
whether or not the lock is free by then; `mcs_lock_unlock` stores into the counter of its own node,
which nobody reads.

* `ReleasesNobody`   a thread does not store into the counter of a node that is being waited on;
* `mcs_exclusive`    as long as no thread does, one thread at most is inside.
-/

namespace Nomalloc

/-- Where a thread is.  `ready`, `swapped` and `waiting` are in `mcs_lock_lock`: before the exchange,
before the store into the predecessor, and in the loop.  `leaving` and `handing` are in
`mcs_lock_unlock`: before the exchange, and before the store. -/
inductive McsPc (T : Type*) where
  | idle
  | ready
  | swapped (prev : T)
  | waiting
  | inside
  | leaving
  | handing
deriving DecidableEq

/-- `mcs_lock_t`, and `counter` of every node. -/
structure McsSys (T : Type*) where
  tail : Option T
  counter : T → ℕ
  pc : T → McsPc T

section
variable {T : Type*} [DecidableEq T]

/-- `mcs_lock_init`, and no thread has called yet. -/
def McsSys.init : McsSys T := ⟨none, fun _ => 0, fun _ => .idle⟩

def McsSys.goto (s : McsSys T) (t : T) (pc : McsPc T) : McsSys T :=
  { s with pc := Function.update s.pc t pc }

def McsSys.setCounter (s : McsSys T) (t : T) (value : ℕ) : McsSys T :=
  { s with counter := Function.update s.counter t value }

/-- The next atomic operation of a thread. -/
def mcsStep (s : McsSys T) (t : T) : McsSys T :=
  match s.pc t with
  | .idle => (s.setCounter t 1).goto t .ready
  | .ready =>
    match s.tail with
    | none => { s with tail := some t }.goto t .inside
    | some prev => { s with tail := some t }.goto t (.swapped prev)
  | .swapped prev => (s.setCounter prev 0).goto t .waiting
  | .waiting => if s.counter t = 1 then s else s.goto t .inside
  -- the call of `mcs_lock_unlock`
  | .inside => s.goto t .leaving
  | .leaving =>
    if s.tail = some t then { s with tail := none }.goto t .idle else s.goto t .handing
  | .handing => (s.setCounter t 0).goto t .idle

/-- Two threads have never returned from `mcs_lock_lock` and not yet begun `mcs_lock_unlock`. -/
def McsSys.Exclusive (s : McsSys T) : Prop :=
  ∀ t u, s.pc t = .inside → s.pc u = .inside → t = u

/-- A thread is in `mcs_lock_lock`, its counter set. -/
def McsPc.Acquiring : McsPc T → Prop
  | .ready | .swapped _ | .waiting => True
  | _ => False

instance : DecidablePred (McsPc.Acquiring : McsPc T → Prop) := fun pc =>
  match pc with
  | .ready | .swapped _ | .waiting => isTrue trivial
  | .idle | .inside | .leaving | .handing => isFalse id

/-- The node into whose counter a thread is about to store 0 for its predecessor. -/
def McsPc.target : McsPc T → Option T
  | .swapped prev => some prev
  | _ => none

/-- The store into the predecessor's counter does not reach a thread that is still to wait, or
waits. -/
def McsSys.ReleasesNobody (s : McsSys T) (t : T) : Prop :=
  ∀ prev ∈ (s.pc t).target, ¬ (s.pc prev).Acquiring

instance (s : McsSys T) (t : T) : Decidable (s.ReleasesNobody t) :=
  inferInstanceAs (Decidable (∀ prev ∈ (s.pc t).target, ¬ (s.pc prev).Acquiring))

/-! ## the invariant -/

/-- A thread has the lock: it is inside, or has not yet given up the tail. -/
def McsPc.Holding : McsPc T → Prop
  | .inside | .leaving => True
  | _ => False

structure McsInv (s : McsSys T) : Prop where
  /-- the counter of a thread that is to wait is still 1 -/
  counter : ∀ t, (s.pc t).Acquiring → s.counter t = 1
  one : ∀ t u, (s.pc t).Holding → (s.pc u).Holding → t = u
  tail : ∀ t, (s.pc t).Holding → s.tail ≠ none

variable {s : McsSys T} {t : T}

omit [DecidableEq T] in
theorem mcsInv_init : McsInv (McsSys.init : McsSys T) := by
  refine ⟨fun t ht => ?_, fun t u ht _ => ?_, fun t ht => ?_⟩
  all_goals exact absurd ht id

omit [DecidableEq T] in
theorem McsInv.exclusive (h : McsInv s) : s.Exclusive := by
  intro t u ht hu
  refine h.one t u ?_ ?_
  · rw [ht]; trivial
  · rw [hu]; trivial

theorem goto_self (s : McsSys T) (t : T) (pc : McsPc T) : (s.goto t pc).pc t = pc :=
  Function.update_self ..

theorem goto_other (s : McsSys T) {t u : T} (hu : u ≠ t) (pc : McsPc T) :
    (s.goto t pc).pc u = s.pc u := Function.update_of_ne hu ..

namespace McsInv

/-- A thread moves on without taking the lock, to a place where its counter has to be 1 only if it
is. -/
theorem move (h : McsInv s) {counter : T → ℕ} {pc : McsPc T}
    (hcounter : ∀ u, u ≠ t → (s.pc u).Acquiring → counter u = 1)
    (hself : pc.Acquiring → counter t = 1) (hpc : pc.Holding → (s.pc t).Holding) :
    McsInv (({ s with counter := counter } : McsSys T).goto t pc) := by
  have hold : ∀ u, ((({ s with counter := counter } : McsSys T).goto t pc).pc u).Holding →
      (s.pc u).Holding := by
    intro u hu
    by_cases hut : u = t
    · subst hut
      rw [goto_self] at hu
      exact hpc hu
    · rwa [goto_other _ hut] at hu
  refine ⟨fun u hu => ?_, fun u v hu hv => h.one u v (hold u hu) (hold v hv),
    fun u hu => h.tail u (hold u hu)⟩
  by_cases hut : u = t
  · subst hut
    rw [goto_self] at hu
    exact hself hu
  · rw [goto_other _ hut] at hu
    exact hcounter u hut hu

theorem exchange (h : McsInv s) {pc : McsPc T} (ht : s.pc t = .ready)
    (hself : pc.Acquiring → s.counter t = 1) (hpc : pc.Holding → s.tail = none) :
    McsInv (({ s with tail := some t } : McsSys T).goto t pc) := by
  have hnot : ∀ u, pc.Holding → ¬ (s.pc u).Holding := fun u hh hu => h.tail u hu (hpc hh)
  refine ⟨fun u hu => ?_, fun u v hu hv => ?_, fun _ _ => Option.some_ne_none t⟩
  · by_cases hut : u = t
    · subst hut
      rw [goto_self] at hu
      exact hself hu
    · rw [goto_other _ hut] at hu
      exact h.counter u hu
  · by_cases hut : u = t
    · by_cases hvt : v = t
      · rw [hut, hvt]
      · rw [hut, goto_self] at hu
        rw [goto_other _ hvt] at hv
        exact absurd hv (hnot v hu)
    · rw [goto_other _ hut] at hu
      by_cases hvt : v = t
      · rw [hvt, goto_self] at hv
        exact absurd hu (hnot u hv)
      · rw [goto_other _ hvt] at hv
        exact h.one u v hu hv

theorem release (h : McsInv s) (ht : (s.pc t).Holding) :
    McsInv (({ s with tail := none } : McsSys T).goto t .idle) := by
  have hnone : ∀ u, ¬ ((({ s with tail := none } : McsSys T).goto t .idle).pc u).Holding := by
    intro u hu
    by_cases hut : u = t
    · rw [hut, goto_self] at hu
      exact hu
    · rw [goto_other _ hut] at hu
      exact hut (h.one u t hu ht)
  refine ⟨fun u hu => ?_, fun u v hu _ => absurd hu (hnone u), fun u hu => absurd hu (hnone u)⟩
  by_cases hut : u = t
  · rw [hut, goto_self] at hu
    exact absurd hu id
  · rw [goto_other _ hut] at hu
    exact h.counter u hu

/-- **Step lemma.**  A thread that waits stays where it is, since its counter is still 1. -/
theorem step (h : McsInv s) (t : T) (hrel : s.ReleasesNobody t) : McsInv (mcsStep s t) := by
  unfold mcsStep
  cases ht : s.pc t with
  | idle =>
    refine h.move (fun u hut hu => ?_) (fun _ => Function.update_self ..) fun hh => absurd hh id
    rw [Function.update_of_ne hut]
    exact h.counter u hu
  | ready =>
    have hone : s.counter t = 1 := h.counter t (by rw [ht]; trivial)
    cases htail : s.tail with
    | none => exact h.exchange ht (fun hh => absurd hh id) fun _ => htail
    | some prev => exact h.exchange ht (fun _ => hone) fun hh => absurd hh id
  | swapped prev =>
    have hone : s.counter t = 1 := h.counter t (by rw [ht]; trivial)
    have hprev := hrel prev (by rw [ht]; rfl)
    have hne : ∀ u, (s.pc u).Acquiring → u ≠ prev := by
      rintro u hu rfl
      exact hprev hu
    refine h.move (fun u _ hu => ?_) (fun _ => ?_) fun hh => absurd hh id
    · rw [Function.update_of_ne (hne u hu)]
      exact h.counter u hu
    · rw [Function.update_of_ne (hne t (by rw [ht]; trivial))]
      exact hone
  | waiting =>
    dsimp only
    rw [if_pos (h.counter t (by rw [ht]; trivial))]
    exact h
  | inside =>
    exact h.move (fun u _ hu => h.counter u hu) (fun hh => absurd hh id) fun _ => by rw [ht]; trivial
  | leaving =>
    dsimp only
    by_cases htail : s.tail = some t
    · rw [if_pos htail]
      exact h.release (by rw [ht]; trivial)
    · rw [if_neg htail]
      exact h.move (fun u _ hu => h.counter u hu) (fun hh => absurd hh id) fun hh => absurd hh id
  | handing =>
    refine h.move (fun u hut hu => ?_) (fun hh => absurd hh id) fun hh => absurd hh id
    rw [Function.update_of_ne hut]
    exact h.counter u hu

end McsInv

/-- **Mutual exclusion**, for every number of threads and every interleaving, as long as no thread
that arrives stores into the counter of a thread that is itself still in `mcs_lock_lock`. -/
theorem mcs_exclusive (T : Type*) [DecidableEq T] (run : List T)
    (hrun : Runs.Each mcsStep McsSys.ReleasesNobody McsSys.init run) :
    Runs.Always mcsStep McsSys.Exclusive McsSys.init run :=
  (Runs.inv_always (fun _ t h hrel => h.step t hrel) mcsInv_init hrun).mono fun _ h => h.exclusive

end

/-- One thread locks and unlocks, a second comes after it and a third waits for it. -/
def mcsQuietRun : List (Fin 3) := [0, 0, 0, 0, 1, 1, 2, 2, 2, 2]

theorem mcs_exclusive_quiet :
    Runs.Always mcsStep McsSys.Exclusive (McsSys.init : McsSys (Fin 3)) mcsQuietRun := by
  refine mcs_exclusive (Fin 3) mcsQuietRun ?_
  refine ⟨?_, ?_, ?_, ?_, ?_, ?_, ?_, ?_, ?_, ?_, trivial⟩
  all_goals decide

/-- The first thread is inside, the second waits for it, and the third, by arriving, lets the second
in. -/
def mcsThreeRun : List (Fin 3) := [0, 0, 1, 1, 1, 2, 2, 2, 1]

theorem third_thread_releases_second :
    ¬ ∀ run : List (Fin 3), Runs.Always mcsStep McsSys.Exclusive McsSys.init run := by
  intro hall
  have hlast := (hall mcsThreeRun).last
  exact absurd (hlast 0 1 (by decide) (by decide)) (by decide)

end Nomalloc
