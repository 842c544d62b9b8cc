import Nomalloc.Lib.Runs
import Mathlib.Logic.Function.Basic
import Mathlib.Tactic

/-!
# `utils/spinlock.h`: the spin lock

A run is a list of moves: each lets a thread do its next atomic operation, and says which of
`spinlock_lock` and `spinlock_trylock` a thread calls that is outside.  `spinlock_lock` tries, and
between two tries it loads until it does not see 1.  `entered` records who got the lock.

* `SpinInv`         the word is 1 while a thread is inside and 0 otherwise;
* `spin_exclusive`  one thread at most is inside, and `spinlock_trylock` answers whether nobody is;
* `spin_progress`   while the lock is free, two operations of a thread that wants it are enough for
                    some thread to get it, whatever the others do in between.
-/

namespace Nomalloc

/-- `atomic32_compare_exchange`: what it leaves and whether it has stored. -/
def atomic32CompareExchange (x expected desired : ℕ) : ℕ × Bool :=
  if x = expected then (desired, true) else (x, false)

/-- Where a thread is: outside, in `spinlock_lock` before a try or in the loop of loads, or behind
it. -/
inductive SpinPc where
  | idle
  | trying
  | spinning
  | inside
deriving DecidableEq, Repr

/-- `spinlock_t` and its threads. -/
structure SpinSys (T : Type*) where
  lock : ℕ
  pc : T → SpinPc
  entered : List T

/-- What an idle thread calls. -/
inductive SpinCall where
  | lock
  | trylock
deriving DecidableEq, Repr

section
variable {T : Type*} [DecidableEq T]

/-- `spinlock_init`, and no thread has called yet. -/
def SpinSys.init : SpinSys T := ⟨0, fun _ => .idle, []⟩

def SpinSys.goto (s : SpinSys T) (t : T) (pc : SpinPc) : SpinSys T :=
  { s with pc := Function.update s.pc t pc }

/-- `spinlock_trylock`: the word it leaves and its answer. -/
def spinlockTrylock (lock : ℕ) : ℕ × Bool := atomic32CompareExchange lock 0 1

/-- `spinlock_is_locked` -/
def spinlockIsLocked (lock : ℕ) : Bool := lock ≠ 0

/-- A try of the lock; a thread that fails goes to `failed`. -/
def spinTry (s : SpinSys T) (t : T) (failed : SpinPc) : SpinSys T :=
  let r := spinlockTrylock s.lock
  if r.2 then { s with lock := r.1, entered := s.entered ++ [t] }.goto t .inside
  else { s with lock := r.1 }.goto t failed

/-- The next atomic operation of a thread. -/
def spinStep (s : SpinSys T) (m : T × SpinCall) : SpinSys T :=
  match s.pc m.1 with
  | .idle =>
    match m.2 with
    | .lock => spinTry s m.1 .spinning
    | .trylock => spinTry s m.1 .idle
  | .trying => spinTry s m.1 .spinning
  | .spinning => if s.lock = 1 then s else s.goto m.1 .trying
  -- `spinlock_unlock`
  | .inside => { s with lock := 0 }.goto m.1 .idle

/-- Nobody is inside. -/
def SpinSys.Free (s : SpinSys T) : Prop := ∀ t, s.pc t ≠ .inside

/-- The promises of the lock in a state. -/
structure SpinSys.Sound (s : SpinSys T) : Prop where
  exclusive : ∀ t u, s.pc t = .inside → s.pc u = .inside → t = u
  free : s.Free → s.lock = 0
  taken : ∀ t, s.pc t = .inside → s.lock = 1
  /-- what `spinlock_trylock` and `spinlock_is_locked` would answer now -/
  trylock : (spinlockTrylock s.lock).2 = true ↔ s.Free
  locked : spinlockIsLocked s.lock = true ↔ ¬ s.Free

/-! ## the invariant -/

structure SpinInv (s : SpinSys T) : Prop where
  one : ∀ t u, s.pc t = .inside → s.pc u = .inside → t = u
  word : (s.lock = 0 ∧ s.Free) ∨ (s.lock = 1 ∧ ∃ t, s.pc t = .inside)

variable {s : SpinSys T} {t : T} {m : T × SpinCall}

omit [DecidableEq T] in
theorem spinInv_init : SpinInv (SpinSys.init : SpinSys T) :=
  ⟨fun _ _ ht => absurd ht (by simp [SpinSys.init]),
    Or.inl ⟨rfl, fun _ ht => absurd ht (by simp [SpinSys.init])⟩⟩

theorem SpinSys.goto_self (s : SpinSys T) (t : T) (pc : SpinPc) : (s.goto t pc).pc t = pc :=
  Function.update_self ..

theorem SpinSys.goto_other (s : SpinSys T) {t u : T} (hu : u ≠ t) (pc : SpinPc) :
    (s.goto t pc).pc u = s.pc u := Function.update_of_ne hu ..

/-- A try gets a free lock, and only a free one. -/
theorem spinTry_cases (s : SpinSys T) (t : T) (failed : SpinPc) :
    (s.lock = 0 ∧ spinTry s t failed =
        { s with lock := 1, entered := s.entered ++ [t] }.goto t .inside) ∨
      (s.lock ≠ 0 ∧ spinTry s t failed = s.goto t failed) := by
  unfold spinTry spinlockTrylock atomic32CompareExchange
  by_cases h : s.lock = 0
  · exact Or.inl ⟨h, by rw [if_pos h]; rfl⟩
  · exact Or.inr ⟨h, by rw [if_neg h]; rfl⟩

namespace SpinInv

omit [DecidableEq T] in
theorem free_of_zero (h : SpinInv s) (h0 : s.lock = 0) : s.Free := by
  rcases h.word with ⟨-, hfree⟩ | ⟨h1, -⟩
  · exact hfree
  · exact absurd (h0.symm.trans h1) (by decide)

omit [DecidableEq T] in
theorem zero_iff_free (h : SpinInv s) : s.lock = 0 ↔ s.Free := by
  refine ⟨h.free_of_zero, fun hfree => ?_⟩
  rcases h.word with ⟨h0, -⟩ | ⟨-, t, ht⟩
  · exact h0
  · exact absurd ht (hfree t)

omit [DecidableEq T] in
theorem sound (h : SpinInv s) : s.Sound := by
  refine ⟨h.one, h.zero_iff_free.mpr, fun t ht => ?_, ?_, ?_⟩
  · rcases h.word with ⟨-, hfree⟩ | ⟨h1, -⟩
    · exact absurd ht (hfree t)
    · exact h1
  · rw [← h.zero_iff_free]
    unfold spinlockTrylock atomic32CompareExchange
    split <;> simp_all
  · rw [← h.zero_iff_free]
    unfold spinlockIsLocked
    rw [decide_eq_true_iff]

/-- A thread that is not inside and does not get there. -/
theorem move (h : SpinInv s) (ht : s.pc t ≠ .inside) {pc : SpinPc} (hpc : pc ≠ .inside) :
    SpinInv (s.goto t pc) := by
  have hiff : ∀ u, (s.goto t pc).pc u = .inside ↔ s.pc u = .inside := by
    intro u
    by_cases hu : u = t
    · rw [hu, s.goto_self]
      exact iff_of_false hpc ht
    · rw [s.goto_other hu]
  refine ⟨fun u v hu hv => h.one u v ((hiff u).mp hu) ((hiff v).mp hv), ?_⟩
  rcases h.word with ⟨h0, hfree⟩ | ⟨h1, u, hu⟩
  · exact Or.inl ⟨h0, fun u hu => hfree u ((hiff u).mp hu)⟩
  · exact Or.inr ⟨h1, u, (hiff u).mpr hu⟩

theorem enter (h : SpinInv s) (h0 : s.lock = 0) :
    SpinInv ({ s with lock := 1, entered := s.entered ++ [t] }.goto t .inside) := by
  have hfree := h.free_of_zero h0
  have honly : ∀ u, ({ s with lock := 1, entered := s.entered ++ [t] }.goto t .inside).pc u =
      .inside → u = t := by
    intro u hu
    by_contra hne
    rw [SpinSys.goto_other _ hne] at hu
    exact hfree u hu
  exact ⟨fun u v hu hv => (honly u hu).trans (honly v hv).symm,
    Or.inr ⟨rfl, t, SpinSys.goto_self ..⟩⟩

theorem tryLock (h : SpinInv s) (ht : s.pc t ≠ .inside) {failed : SpinPc}
    (hfailed : failed ≠ .inside) : SpinInv (spinTry s t failed) := by
  rcases spinTry_cases s t failed with ⟨h0, heq⟩ | ⟨-, heq⟩ <;> rw [heq]
  · exact h.enter h0
  · exact h.move ht hfailed

theorem unlock (h : SpinInv s) (ht : s.pc t = .inside) :
    SpinInv ({ s with lock := 0 }.goto t .idle) := by
  have hnone : ∀ u, ({ s with lock := 0 }.goto t .idle).pc u ≠ .inside := by
    intro u hu
    by_cases hut : u = t
    · rw [hut, SpinSys.goto_self] at hu
      cases hu
    · rw [SpinSys.goto_other _ hut] at hu
      exact hut (h.one u t hu ht)
  exact ⟨fun u v hu => absurd hu (hnone u), Or.inl ⟨rfl, hnone⟩⟩

/-- **Step lemma.** -/
theorem step (h : SpinInv s) (m : T × SpinCall) : SpinInv (spinStep s m) := by
  unfold spinStep
  cases hpc : s.pc m.1 with
  | idle =>
    have hne : s.pc m.1 ≠ .inside := by rw [hpc]; decide
    cases m.2 with
    | lock => exact h.tryLock hne (by decide)
    | trylock => exact h.tryLock hne (by decide)
  | trying => exact h.tryLock (by rw [hpc]; decide) (by decide)
  | spinning =>
    dsimp only
    split
    · exact h
    · exact h.move (by rw [hpc]; decide) (by decide)
  | inside => exact h.unlock hpc

end SpinInv

theorem spin_inv (run : List (T × SpinCall)) : SpinInv (Runs.after spinStep SpinSys.init run) :=
  Runs.inv_after (fun _ m h _ => h.step m) spinInv_init (Runs.each_of_forall (fun _ _ => trivial) _ run)

/-- **Mutual exclusion**, for any number of threads and every interleaving; the functions that do not
wait answer whether the lock is free. -/
theorem spin_exclusive (run : List (T × SpinCall)) :
    Runs.Always spinStep SpinSys.Sound (SpinSys.init : SpinSys T) run :=
  (Runs.inv_always (fun _ m h _ => h.step m) spinInv_init
    (Runs.each_of_forall (fun _ _ => trivial) _ run)).mono fun _ h => h.sound

/-! ## progress -/

/-- The number of operations that `t` may still need while the lock is free. -/
def SpinPc.distance : SpinPc → ℕ
  | .trying => 1
  | .spinning => 2
  | .idle | .inside => 0

/-- A thread that is in `spinlock_lock`. -/
def SpinSys.Wants (s : SpinSys T) (t : T) : Prop := s.pc t = .trying ∨ s.pc t = .spinning

theorem entered_le (s : SpinSys T) (m : T × SpinCall) : s.entered <+: (spinStep s m).entered := by
  have htry : ∀ failed, s.entered <+: (spinTry s m.1 failed).entered := by
    intro failed
    rcases spinTry_cases s m.1 failed with ⟨-, heq⟩ | ⟨-, heq⟩ <;> rw [heq]
    · exact ⟨[m.1], rfl⟩
    · exact List.prefix_refl _
  unfold spinStep
  split
  · split <;> exact htry _
  · exact htry _
  · split <;> exact List.prefix_refl _
  · exact List.prefix_refl _

theorem entered_le_run (s : SpinSys T) (run : List (T × SpinCall)) :
    s.entered <+: (Runs.after spinStep s run).entered := by
  induction run generalizing s with
  | nil => exact List.prefix_refl _
  | cons m run ih => exact (entered_le s m).trans (ih _)

/-- While the lock is free an operation gets somebody in, or it is a load that ends a loop; then the
lock is still free. -/
theorem free_step (h0 : s.lock = 0) (hfree : s.Free) (m : T × SpinCall) :
    (spinStep s m).entered = s.entered ++ [m.1] ∨
      (s.pc m.1 = .spinning ∧ spinStep s m = s.goto m.1 .trying) := by
  have htry : ∀ failed, (spinTry s m.1 failed).entered = s.entered ++ [m.1] := by
    intro failed
    rcases spinTry_cases s m.1 failed with ⟨-, heq⟩ | ⟨hne, -⟩
    · rw [heq]
      rfl
    · exact absurd h0 hne
  unfold spinStep
  cases hpc : s.pc m.1 with
  | idle =>
    left
    cases m.2 with
    | lock => exact htry _
    | trylock => exact htry _
  | trying => exact Or.inl (htry _)
  | spinning =>
    refine Or.inr ⟨rfl, ?_⟩
    dsimp only
    rw [if_neg (by rw [h0]; decide)]
  | inside => exact absurd hpc (hfree m.1)

theorem free_run (h0 : s.lock = 0) (hfree : s.Free) (hwants : s.Wants t)
    (more : List (T × SpinCall)) (hmore : (s.pc t).distance ≤ (more.map Prod.fst).count t) :
    s.entered.length < (Runs.after spinStep s more).entered.length := by
  induction more generalizing s with
  | nil =>
    rcases hwants with ht | ht <;> rw [ht] at hmore <;>
      exact absurd hmore (by simp [SpinPc.distance])
  | cons m more ih =>
    rw [Runs.after_cons]
    rcases free_step h0 hfree m with hin | ⟨hspin, heq⟩
    · have hle := (entered_le_run (spinStep s m) more).length_le
      rw [hin, List.length_append, List.length_singleton] at hle
      exact hle
    · rw [List.map_cons, List.count_cons] at hmore
      rw [heq]
      refine ih (s := s.goto m.1 .trying) h0 (fun u => ?_) ?_ ?_
      · by_cases hu : u = m.1
        · rw [hu, s.goto_self]
          decide
        · rw [s.goto_other hu]
          exact hfree u
      · by_cases ht : t = m.1
        · exact Or.inl (by rw [ht, s.goto_self])
        · exact hwants.imp (fun h => by rw [s.goto_other ht, h]) fun h => by rw [s.goto_other ht, h]
      · by_cases ht : t = m.1
        · rw [ht] at hmore ⊢
          rw [s.goto_self]
          rw [hspin, if_pos (beq_self_eq_true _)] at hmore
          exact Nat.le_of_succ_le_succ hmore
        · rw [s.goto_other ht]
          rwa [if_neg (fun hb => ht (eq_of_beq hb).symm), Nat.add_zero] at hmore

/-- **Progress.**  In every state reached in which nobody is inside, a thread that is in
`spinlock_lock` needs two more operations at most, however they are interleaved with those of the
others, until the lock has been given to a thread. -/
theorem spin_progress (run more : List (T × SpinCall)) (t : T)
    (hfree : (Runs.after spinStep (SpinSys.init : SpinSys T) run).Free)
    (hwants : (Runs.after spinStep (SpinSys.init : SpinSys T) run).Wants t)
    (hmore : 2 ≤ (more.map Prod.fst).count t) :
    (Runs.after spinStep (SpinSys.init : SpinSys T) run).entered.length <
      (Runs.after spinStep (SpinSys.init : SpinSys T) (run ++ more)).entered.length := by
  have h0 := (spin_inv run).zero_iff_free.mpr hfree
  have hdist : ((Runs.after spinStep (SpinSys.init : SpinSys T) run).pc t).distance ≤ 2 := by
    cases (Runs.after spinStep (SpinSys.init : SpinSys T) run).pc t <;> decide
  rw [Runs.after_append]
  exact free_run h0 hfree hwants more (hdist.trans hmore)

/-- A thread that spun while another one was inside, and a third one that comes in between. -/
theorem spin_progress_three :
    (Runs.after spinStep (SpinSys.init : SpinSys (Fin 3))
        [(0, .lock), (1, .lock), (0, .lock)]).entered.length <
      (Runs.after spinStep (SpinSys.init : SpinSys (Fin 3))
        ([(0, .lock), (1, .lock), (0, .lock)] ++
          [(1, .lock), (2, .trylock), (1, .lock)])).entered.length :=
  spin_progress _ [(1, .lock), (2, .trylock), (1, .lock)] 1
    (by unfold SpinSys.Free; decide) (by unfold SpinSys.Wants; decide) (by decide)

end

end Nomalloc
