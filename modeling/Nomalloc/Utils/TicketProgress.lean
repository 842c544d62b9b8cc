import Nomalloc.Utils.TicketLock
import Nomalloc.Lib.FairRuns

/-!
# The ticket lock serves every thread

A round is a part of a run in which every thread does at least one operation.  A thread that waits
with `i` threads before it gets the lock within `2 * i + 2` rounds, whoever arrives in the meantime
and in whatever order the threads come up in a round: the thread inside leaves, the first one that
waits enters, and so on.

* `TicketNear`         how far off the entry of a thread is, and whose operation is the next that counts;
* `ticket_served`      so `2 * n` rounds are enough, `n` being the number of threads.
-/

namespace Nomalloc

section
variable {T : Type*} [DecidableEq T]

/-- `t` waits in the line and is `n` operations away from its entry, the next of them being `u`'s;
it has entered `entries` times so far. -/
def TicketNear (w : ℕ) (t : T) (entries n : ℕ) (u : T) (s : TicketSys T) : Prop :=
  ∃ past holder ws i, TicketInv w s past holder ws ∧ ws[i]? = some t ∧
    s.entered.count t = entries ∧ n = 2 * i + 1 + holder.toList.length ∧
    (holder.toList ++ ws).head? = some u

variable {w : ℕ} {s : TicketSys T} {t u v : T} {past : ℕ} {holder : Option T} {ws : List T}

/-- The next ticket that counts is served when nobody is inside. -/
theorem TicketInv.enters (hw : 32 ≤ w) (h : TicketInv w s past none (u :: ws)) :
    ticketStep w s u = ticketEnter s u := by
  have hpc := h.waits 0 u rfl
  have hentered : s.entered.length = past := h.entered
  unfold ticketStep
  rw [hpc]
  dsimp only
  unfold ticketWait
  refine if_neg (not_not.mpr ?_)
  rw [h.serving, atomic32Load_mod hw, hentered]
  rfl

/-- The thread inside leaves. -/
theorem TicketInv.leaves (h : TicketInv w s past (some u) ws) :
    ticketStep w s u = ticketUnlock w s u := by
  have hpc := (h.inside u).mpr rfl
  unfold ticketStep
  rw [hpc]

/-- The others only arrive, or find a ticket that is not theirs. -/
theorem TicketInv.others [Fintype T] (hT : Fintype.card T < 2 ^ 32) (hw : 32 ≤ w)
    (h : TicketInv w s past holder ws) (hu : (holder.toList ++ ws).head? = some u) (hv : v ≠ u) :
    ticketStep w s v = s ∨ (s.pc v = .idle ∧ ticketStep w s v = ticketDraw w s v) := by
  unfold ticketStep
  cases hpc : s.pc v with
  | idle => exact Or.inr ⟨rfl, rfl⟩
  | inside =>
    have hh := (h.inside v).mp hpc
    subst hh
    exact absurd (Option.some.inj hu) hv
  | waiting k =>
    left
    dsimp only
    unfold ticketWait
    refine if_pos fun heq => ?_
    obtain ⟨i, hi⟩ := List.mem_iff_getElem?.mp (h.busy v k hpc)
    have hk : k = (s.entered.length + i) % 2 ^ 32 := by
      have hwait := h.waits i v hi
      rw [hpc] at hwait
      exact TicketPc.waiting.inj hwait
    obtain ⟨rfl, rfl⟩ := h.served hT hw hi (heq.trans hk)
    rw [Option.toList_none, List.nil_append, List.head?_eq_getElem?, hi] at hu
    exact hv (Option.some.inj hu)

theorem ticketNear_other [Fintype T] (hT : Fintype.card T < 2 ^ 32) (hw : 32 ≤ w) {entries n : ℕ}
    (h : TicketNear w t entries n u s) (hv : v ≠ u) :
    TicketNear w t entries n u (ticketStep w s v) := by
  obtain ⟨past, holder, ws, i, hinv, hi, hcount, hn, hu⟩ := h
  rcases hinv.others hT hw hu hv with heq | ⟨hidle, heq⟩ <;> rw [heq]
  · exact ⟨past, holder, ws, i, hinv, hi, hcount, hn, hu⟩
  · refine ⟨past, holder, ws ++ [v], i, hinv.draw hw hidle, ?_, hcount, hn, ?_⟩
    · rw [List.getElem?_append_left (List.getElem?_eq_some_iff.mp hi).1, hi]
    · rw [← List.append_assoc, List.head?_append, hu]
      rfl

theorem ticketNear_self (hw : 32 ≤ w) {entries n : ℕ} (h : TicketNear w t entries n u s) :
    entries < (ticketStep w s u).entered.count t ∨
      ∃ m < n, ∃ v, TicketNear w t entries m v (ticketStep w s u) := by
  obtain ⟨past, holder, ws, i, hinv, hi, hcount, hn, hu⟩ := h
  cases holder with
  | some x =>
    have hx : x = u := Option.some.inj hu
    subst hx
    rw [hinv.leaves]
    have hne : ws ≠ [] := by
      rintro rfl
      exact absurd hi (by simp)
    obtain ⟨v, hv⟩ : ∃ v, ws.head? = some v := ⟨_, List.head?_eq_some_head hne⟩
    have hn' : n = 2 * i + 1 + 1 := hn
    exact Or.inr ⟨2 * i + 1, by omega, v, past + 1, none, ws, i, hinv.unlock, hi, hcount, rfl, hv⟩
  | none =>
    cases ws with
    | nil => exact absurd hi (by simp)
    | cons x ws =>
      have hx : x = u := Option.some.inj hu
      subst hx
      rw [hinv.enters hw]
      have hentered : (ticketEnter s x).entered = s.entered ++ [x] := rfl
      cases i with
      | zero =>
        have hxt : x = t := Option.some.inj hi
        left
        rw [hentered, List.count_append, hcount, hxt, List.count_singleton_self]
        exact Nat.lt_succ_self _
      | succ j =>
        have hxt : x ≠ t := by
          rintro rfl
          exact (List.nodup_cons.mp hinv.nodup).1 (List.mem_of_getElem? hi)
        have hn' : n = 2 * (j + 1) + 1 := hn
        refine Or.inr ⟨2 * j + 1 + 1, by omega, x, past, some x, ws, j, hinv.enter, hi, ?_, rfl, rfl⟩
        rw [hentered, List.count_append, hcount, List.count_singleton,
          if_neg (fun hb => hxt (eq_of_beq hb)), Nat.add_zero]

theorem entered_count_le (w : ℕ) (s : TicketSys T) (t u : T) :
    s.entered.count t ≤ (ticketStep w s u).entered.count t := by
  have hprefix : s.entered <+: (ticketStep w s u).entered := by
    unfold ticketStep
    split
    · exact List.prefix_refl _
    · unfold ticketWait
      split
      · exact List.prefix_refl _
      · exact List.prefix_append _ _
    · exact List.prefix_refl _
  exact hprefix.sublist.count_le t

/-- Every state reached has its line. -/
theorem ticket_line [Fintype T] (hT : Fintype.card T < 2 ^ 32) (hw : 32 ≤ w) (run : List T) :
    ∃ past holder ws, TicketInv w (Runs.after (ticketStep w) TicketSys.init run) past holder ws := by
  have hrun : Runs.Always (ticketStep w)
      (fun s => ∃ past holder ws, TicketInv w s past holder ws) TicketSys.init run :=
    Runs.inv_always (fun s t ⟨_, _, _, h⟩ hC => h.step hC hw t) ⟨0, none, [], ticketInv_init⟩
      (Runs.each_of_forall (fun _ _ => hT) _ run)
  exact hrun.last

/-- **No thread waits for ever.**  In every state reached, a thread that has its ticket gets the lock
within two rounds for every thread there is, in each of which all threads come up, in any order and
as often as they like. -/
theorem ticket_served (T : Type*) [DecidableEq T] [Fintype T] (hT : Fintype.card T < 2 ^ 32) (w : ℕ)
    (hw : 32 ≤ w) (run : List T) (t : T) (ticket : ℕ)
    (hwait : (Runs.after (ticketStep w) TicketSys.init run).pc t = .waiting ticket)
    (rounds : List (List T)) (hfair : ∀ round ∈ rounds, ∀ u, u ∈ round)
    (hrounds : 2 * Fintype.card T ≤ rounds.length) :
    (Runs.after (ticketStep w) TicketSys.init run).entered.count t <
      (Runs.after (ticketStep w) TicketSys.init (run ++ rounds.flatten)).entered.count t := by
  obtain ⟨past, holder, ws, hinv⟩ := ticket_line hT hw run
  obtain ⟨i, hi⟩ := List.mem_iff_getElem?.mp (hinv.busy t ticket hwait)
  have hlt := (List.getElem?_eq_some_iff.mp hi).1
  have hlen := hinv.length_le
  obtain ⟨u, hu⟩ : ∃ u, (holder.toList ++ ws).head? = some u := by
    refine ⟨_, List.head?_eq_some_head fun he => ?_⟩
    rw [(List.append_eq_nil_iff.mp he).2] at hlt
    exact absurd hlt (Nat.not_lt_zero _)
  have hnear : TicketNear w t ((Runs.after (ticketStep w) TicketSys.init run).entered.count t)
      (2 * i + 1 + holder.toList.length) u (Runs.after (ticketStep w) TicketSys.init run) :=
    ⟨past, holder, ws, i, hinv, hi, rfl, rfl, hu⟩
  rw [Runs.after_append]
  refine Runs.goal_of_rounds (TicketNear w t _) (fun s => _ < s.entered.count t)
    (fun n u v s h hv => ticketNear_other hT hw h hv) (fun n u s h => ticketNear_self hw h)
    (fun s v h => Nat.lt_of_lt_of_le h (entered_count_le w s t v)) hnear hfair (by omega) ?_
  rintro v s ⟨past, holder, ws, i, -, -, -, hn, -⟩
  omega

/-- Two threads: the second has its ticket while the first is inside. -/
theorem ticket_served_two :
    (Runs.after (ticketStep 32) (TicketSys.init : TicketSys (Fin 2)) [0, 0, 1]).entered.count 1 <
      (Runs.after (ticketStep 32) (TicketSys.init : TicketSys (Fin 2))
        ([0, 0, 1] ++ [[0, 1], [1, 0], [0, 0, 1], [0, 1]].flatten)).entered.count 1 :=
  ticket_served (Fin 2) (by decide) 32 (by decide) [0, 0, 1] 1 1 rfl _ (by decide) (by decide)

end

end Nomalloc
