import Nomalloc.Lib.Runs
import Mathlib.Data.Fintype.EquivFin
import Mathlib.Data.Nat.ModEq
import Mathlib.Tactic

/-!
# `utils/spinlock.h`: the ticket lock

A run is a list of threads: each entry lets that thread do its next atomic operation.  A thread
that is outside draws a ticket, one that waits loads `serving`, and the one inside leaves.  The
counters are `atomic32_t`, that is `atomic_uint_fast32_t`, of `w` bits with `32 ≤ w`; what the
functions of `atomic.h` return is cut to 32 bits.

`drawn` and `entered` record the threads in the order of their draws and of their entries.

* `TicketInv`       the outstanding tickets are the numbers from `past` on, in the order of `ws`;
* `ticket_fifo`     one thread at most is inside, and the entries are a prefix of the draws.
-/

namespace Nomalloc

/-- `atomic32_load` -/
def atomic32Load (x : ℕ) : ℕ := x % 2 ^ 32

/-- The value that `atomic_fetch_add(var, 1)` leaves. -/
def atomic32Inc (w x : ℕ) : ℕ := (x + 1) % 2 ^ w

/-- `atomic32_inc_fetch`: what it returns. -/
def atomic32IncFetch (w x : ℕ) : ℕ := atomic32Inc w x % 2 ^ 32

/-- `ticket_lock_t` -/
structure TicketLock where
  ticket : ℕ
  serving : ℕ

/-- Where a thread is: outside, in the loop of `ticket_lock_lock`, or behind it. -/
inductive TicketPc where
  | idle
  | waiting (ticket : ℕ)
  | inside
deriving DecidableEq, Repr

structure TicketSys (T : Type*) where
  lock : TicketLock
  pc : T → TicketPc
  drawn : List T
  entered : List T

section
variable {T : Type*} [DecidableEq T]

/-- `ticket_lock_init`, and no thread has called yet. -/
def TicketSys.init : TicketSys T := ⟨⟨0, 0⟩, fun _ => .idle, [], []⟩

/-- `uint32_t ticket = atomic32_inc_fetch(&lock->ticket) - 1` -/
def ticketDraw (w : ℕ) (s : TicketSys T) (t : T) : TicketSys T :=
  { s with
    lock := { s.lock with ticket := atomic32Inc w s.lock.ticket }
    pc := Function.update s.pc t
      (.waiting ((atomic32IncFetch w s.lock.ticket + 2 ^ 32 - 1) % 2 ^ 32))
    drawn := s.drawn ++ [t] }

/-- `ticket_lock_lock` returns. -/
def ticketEnter (s : TicketSys T) (t : T) : TicketSys T :=
  { s with pc := Function.update s.pc t .inside, entered := s.entered ++ [t] }

/-- `while (atomic32_load(&lock->serving) != ticket)`, one load. -/
def ticketWait (s : TicketSys T) (t : T) (ticket : ℕ) : TicketSys T :=
  if atomic32Load s.lock.serving ≠ ticket then s else ticketEnter s t

/-- `ticket_lock_unlock` -/
def ticketUnlock (w : ℕ) (s : TicketSys T) (t : T) : TicketSys T :=
  { s with
    lock := { s.lock with serving := atomic32Inc w s.lock.serving }
    pc := Function.update s.pc t .idle }

/-- The next atomic operation of a thread. -/
def ticketStep (w : ℕ) (s : TicketSys T) (t : T) : TicketSys T :=
  match s.pc t with
  | .idle => ticketDraw w s t
  | .waiting ticket => ticketWait s t ticket
  | .inside => ticketUnlock w s t

/-- The lock keeps its promise. -/
structure TicketSys.Fair (s : TicketSys T) : Prop where
  /-- one thread at most is between `lock` and `unlock` -/
  exclusive : ∀ t u, s.pc t = .inside → s.pc u = .inside → t = u
  /-- the threads enter in the order in which they drew their tickets -/
  fifo : s.entered <+: s.drawn

/-! ## counters of `w` bits -/

theorem atomic32Load_mod {w : ℕ} (hw : 32 ≤ w) (n : ℕ) :
    atomic32Load (n % 2 ^ w) = n % 2 ^ 32 :=
  Nat.mod_mod_of_dvd n (pow_dvd_pow 2 hw)

theorem atomic32Inc_mod (w n : ℕ) : atomic32Inc w (n % 2 ^ w) = (n + 1) % 2 ^ w := by
  unfold atomic32Inc
  rw [Nat.mod_add_mod]

/-- The ticket is the number of draws so far, in 32 bits. -/
theorem ticket_eq {w : ℕ} (hw : 32 ≤ w) (n : ℕ) :
    (atomic32IncFetch w (n % 2 ^ w) + 2 ^ 32 - 1) % 2 ^ 32 = n % 2 ^ 32 := by
  have hfetch : atomic32IncFetch w (n % 2 ^ w) = (n + 1) % 2 ^ 32 := by
    unfold atomic32IncFetch
    rw [atomic32Inc_mod]
    exact Nat.mod_mod_of_dvd _ (pow_dvd_pow 2 hw)
  rw [hfetch]
  omega

/-! ## the invariant -/

/-- `past` threads have left, `holder` is inside and `ws` wait, in the order of their tickets. -/
structure TicketInv (w : ℕ) (s : TicketSys T) (past : ℕ) (holder : Option T) (ws : List T) :
    Prop where
  drawn : s.drawn = s.entered ++ ws
  entered : s.entered.length = past + holder.toList.length
  ticket : s.lock.ticket = s.drawn.length % 2 ^ w
  serving : s.lock.serving = past % 2 ^ w
  waits : ∀ i t, ws[i]? = some t → s.pc t = .waiting ((s.entered.length + i) % 2 ^ 32)
  inside : ∀ t, s.pc t = .inside ↔ holder = some t
  busy : ∀ t k, s.pc t = .waiting k → t ∈ ws
  nodup : ws.Nodup

variable {w : ℕ} {s : TicketSys T} {past : ℕ} {holder : Option T} {ws : List T} {t : T}

omit [DecidableEq T] in
theorem ticketInv_init : TicketInv w (TicketSys.init : TicketSys T) 0 none [] := by
  refine ⟨rfl, rfl, ?_, ?_, ?_, ?_, ?_, List.nodup_nil⟩
  · exact (Nat.zero_mod _).symm
  · exact (Nat.zero_mod _).symm
  · intro i t hi
    exact absurd hi (by simp)
  · intro t
    exact iff_of_false (by simp [TicketSys.init]) (by simp)
  · intro t k hk
    exact absurd hk (by simp [TicketSys.init])

namespace TicketInv

omit [DecidableEq T] in
theorem fair (h : TicketInv w s past holder ws) : s.Fair := by
  refine ⟨fun t u ht hu => ?_, ⟨ws, h.drawn.symm⟩⟩
  have he := ((h.inside t).mp ht).symm.trans ((h.inside u).mp hu)
  exact Option.some.inj he

omit [DecidableEq T] in
theorem holder_notMem (h : TicketInv w s past holder ws) (ht : holder = some t) : t ∉ ws := by
  intro hin
  obtain ⟨i, hi⟩ := List.mem_iff_getElem?.mp hin
  have hw := h.waits i t hi
  rw [(h.inside t).mpr ht] at hw
  exact absurd hw (by simp)

omit [DecidableEq T] in
theorem length_le [Fintype T] (h : TicketInv w s past holder ws) :
    holder.toList.length + ws.length ≤ Fintype.card T := by
  have hnd : (holder.toList ++ ws).Nodup := by
    cases hh : holder with
    | none => exact h.nodup
    | some t => exact List.nodup_cons.mpr ⟨h.holder_notMem hh, h.nodup⟩
  have := hnd.length_le_card
  rwa [List.length_append] at this

theorem draw (hw : 32 ≤ w) (h : TicketInv w s past holder ws) (ht : s.pc t = .idle) :
    TicketInv w (ticketDraw w s t) past holder (ws ++ [t]) := by
  have hnot : t ∉ ws := by
    intro hin
    obtain ⟨i, hi⟩ := List.mem_iff_getElem?.mp hin
    have hwait := h.waits i t hi
    rw [ht] at hwait
    exact absurd hwait (by simp)
  have hother : ∀ u, u ≠ t → (ticketDraw w s t).pc u = s.pc u :=
    fun u hu => Function.update_of_ne hu ..
  have hself : (ticketDraw w s t).pc t = .waiting (s.drawn.length % 2 ^ 32) := by
    show Function.update s.pc t _ t = _
    rw [Function.update_self, h.ticket, ticket_eq hw]
  refine ⟨?_, h.entered, ?_, h.serving, ?_, ?_, ?_, ?_⟩
  · show s.drawn ++ [t] = s.entered ++ (ws ++ [t])
    rw [h.drawn, List.append_assoc]
  · show atomic32Inc w s.lock.ticket = (s.drawn ++ [t]).length % 2 ^ w
    rw [h.ticket, atomic32Inc_mod, List.length_append, List.length_singleton]
  · intro i u hi
    rcases Nat.lt_or_ge i ws.length with hlt | hge
    · rw [List.getElem?_append_left hlt] at hi
      have hut : u ≠ t := by
        rintro rfl
        exact hnot (List.mem_of_getElem? hi)
      rw [hother u hut]
      exact h.waits i u hi
    · rw [List.getElem?_append_right hge] at hi
      have hlt := (List.getElem?_eq_some_iff.mp hi).1
      rw [List.length_singleton] at hlt
      have hi' : i = ws.length := by omega
      rw [hi', Nat.sub_self] at hi
      rw [← Option.some.inj hi, hself, h.drawn, List.length_append, hi']
      rfl
  · intro u
    by_cases hut : u = t
    · rw [hut, hself]
      refine iff_of_false (by simp) fun hh => ?_
      rw [(h.inside t).mpr hh] at ht
      exact absurd ht (by simp)
    · rw [hother u hut]
      exact h.inside u
  · intro u k hk
    by_cases hut : u = t
    · rw [hut]
      exact List.mem_append_right _ (List.mem_singleton_self t)
    · rw [hother u hut] at hk
      exact List.mem_append_left _ (h.busy u k hk)
  · exact List.nodup_append.mpr ⟨h.nodup, List.nodup_singleton t, fun u hu v hv => by
      rw [List.mem_singleton.mp hv]
      rintro rfl
      exact hnot hu⟩

omit [DecidableEq T] in
/-- **The ticket that is served.**  Fewer than `2^32` tickets are outstanding, so the load finds the
ticket of the first thread in the line, and only when nobody is inside. -/
theorem served [Fintype T] (hT : Fintype.card T < 2 ^ 32) (hw : 32 ≤ w)
    (h : TicketInv w s past holder ws) {i : ℕ} (hi : ws[i]? = some t)
    (heq : atomic32Load s.lock.serving = (s.entered.length + i) % 2 ^ 32) :
    holder = none ∧ i = 0 := by
  have hlt : i < ws.length := (List.getElem?_eq_some_iff.mp hi).1
  have hle := h.length_le
  rw [h.serving, atomic32Load_mod hw, h.entered] at heq
  have hmod : past ≡ past + (holder.toList.length + i) [MOD 2 ^ 32] := by
    rw [← Nat.add_assoc]
    exact heq
  have hzero : holder.toList.length + i ≡ 0 [MOD 2 ^ 32] :=
    (Nat.ModEq.add_left_cancel' past (hmod.trans rfl)).symm
  have hsum : holder.toList.length + i = 0 :=
    Nat.ModEq.eq_of_lt_of_lt hzero (by omega) (by omega)
  refine ⟨?_, by omega⟩
  cases holder with
  | none => rfl
  | some t => exact absurd hsum (by simp)

theorem enter (h : TicketInv w s past none (t :: ws)) :
    TicketInv w (ticketEnter s t) past (some t) ws := by
  obtain ⟨hnot, hnd⟩ := List.nodup_cons.mp h.nodup
  have hother : ∀ u, u ≠ t → (ticketEnter s t).pc u = s.pc u :=
    fun u hu => Function.update_of_ne hu ..
  have hself : (ticketEnter s t).pc t = .inside := Function.update_self ..
  have hentered : (ticketEnter s t).entered = s.entered ++ [t] := rfl
  refine ⟨?_, ?_, h.ticket, h.serving, ?_, ?_, ?_, hnd⟩
  · rw [hentered, List.append_assoc]
    exact h.drawn
  · rw [hentered, List.length_append, h.entered]
    rfl
  · intro i u hi
    have hut : u ≠ t := by
      rintro rfl
      exact hnot (List.mem_of_getElem? hi)
    rw [hother u hut, hentered, List.length_append, List.length_singleton, Nat.add_assoc,
      Nat.add_comm 1]
    exact h.waits (i + 1) u hi
  · intro u
    by_cases hut : u = t
    · rw [hut, hself]
      exact iff_of_true rfl rfl
    · rw [hother u hut]
      refine iff_of_false (fun hu => ?_) fun hu => hut (Option.some.inj hu).symm
      exact absurd ((h.inside u).mp hu) (by simp)
  · intro u k hk
    have hut : u ≠ t := by
      rintro rfl
      rw [hself] at hk
      exact absurd hk (by simp)
    rw [hother u hut] at hk
    exact (List.mem_cons.mp (h.busy u k hk)).resolve_left hut

theorem unlock (h : TicketInv w s past (some t) ws) :
    TicketInv w (ticketUnlock w s t) (past + 1) none ws := by
  have hother : ∀ u, u ≠ t → (ticketUnlock w s t).pc u = s.pc u :=
    fun u hu => Function.update_of_ne hu ..
  have hself : (ticketUnlock w s t).pc t = .idle := Function.update_self ..
  refine ⟨h.drawn, h.entered, h.ticket, ?_, ?_, ?_, ?_, h.nodup⟩
  · show atomic32Inc w s.lock.serving = _
    rw [h.serving, atomic32Inc_mod]
  · intro i u hi
    have hut : u ≠ t := by
      rintro rfl
      exact h.holder_notMem rfl (List.mem_of_getElem? hi)
    rw [hother u hut]
    exact h.waits i u hi
  · intro u
    refine iff_of_false (fun hu => ?_) (by simp)
    by_cases hut : u = t
    · rw [hut, hself] at hu
      exact absurd hu (by simp)
    · rw [hother u hut] at hu
      exact hut (Option.some.inj ((h.inside u).mp hu)).symm
  · intro u k hk
    have hut : u ≠ t := by
      rintro rfl
      rw [hself] at hk
      exact absurd hk (by simp)
    rw [hother u hut] at hk
    exact h.busy u k hk

/-- **Step lemma.** -/
theorem step [Fintype T] (hT : Fintype.card T < 2 ^ 32) (hw : 32 ≤ w)
    (h : TicketInv w s past holder ws) (t : T) :
    ∃ past' holder' ws', TicketInv w (ticketStep w s t) past' holder' ws' := by
  unfold ticketStep
  cases ht : s.pc t with
  | idle => exact ⟨past, holder, ws ++ [t], h.draw hw ht⟩
  | inside =>
    have hh := (h.inside t).mp ht
    subst hh
    exact ⟨past + 1, none, ws, h.unlock⟩
  | waiting k =>
    obtain ⟨i, hi⟩ := List.mem_iff_getElem?.mp (h.busy t k ht)
    have hk : k = (s.entered.length + i) % 2 ^ 32 := by
      have hwait := h.waits i t hi
      rw [ht] at hwait
      exact TicketPc.waiting.inj hwait
    dsimp only
    unfold ticketWait
    by_cases heq : atomic32Load s.lock.serving = k
    · rw [if_neg (not_not.mpr heq)]
      obtain ⟨rfl, rfl⟩ := h.served hT hw hi (heq.trans hk)
      cases ws with
      | nil => exact absurd hi (by simp)
      | cons u us =>
        have hut : u = t := Option.some.inj hi
        subst hut
        exact ⟨past, some u, us, h.enter⟩
    · rw [if_pos heq]
      exact ⟨past, holder, ws, h⟩

end TicketInv

/-- **Mutual exclusion and first come, first served**, for every number of threads below `2^32`, every
width of the counters and every interleaving. -/
theorem ticket_fifo (T : Type*) [DecidableEq T] [Fintype T] (hT : Fintype.card T < 2 ^ 32) (w : ℕ)
    (hw : 32 ≤ w) (run : List T) :
    Runs.Always (ticketStep w) TicketSys.Fair TicketSys.init run := by
  have hrun : Runs.Always (ticketStep w)
      (fun s => ∃ past holder ws, TicketInv w s past holder ws) TicketSys.init run :=
    Runs.inv_always (fun s t ⟨_, _, _, h⟩ hC => h.step hC hw t) ⟨0, none, [], ticketInv_init⟩
      (Runs.each_of_forall (fun _ _ => hT) _ run)
  exact hrun.mono fun s ⟨_, _, _, h⟩ => h.fair

/-- Three threads, the counters of 64 bits that `uint_fast32_t` has on x86-64. -/
theorem ticket_fifo_three : Runs.Always (ticketStep 64) TicketSys.Fair
    (TicketSys.init : TicketSys (Fin 3)) [0, 1, 2, 1, 0, 2, 0, 1, 2, 1, 2, 2] :=
  ticket_fifo (Fin 3) (by decide) 64 (by decide) _

end

end Nomalloc
